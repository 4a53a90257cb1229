import Mathlib.Data.List.Range
import Mathlib.Logic.Function.Basic

/-!
# Circular buffers

The slots of a ring of depth `d` are the numbers below `d`; the memory behind
them is a function of the slot.  Its content is read off from a head slot and a
length.  A block of slots is moved by copying from the back to the front.
-/

namespace Ring

variable {α : Type*} {d h t i j n : ℕ}

/-- The slot of element `i` behind head `h`. -/
def pos (d h i : ℕ) : ℕ := (h + i) % d

/-- The number of elements from head `h` to tail `t`. -/
def count (d h t : ℕ) : ℕ := (t + d - h) % d

/-- `n` adjacent slots. -/
def slice (m : ℕ → α) (p n : ℕ) : List α := (List.range n).map fun i => m (p + i)

/-- `n` elements behind head `h`. -/
def content (m : ℕ → α) (d h n : ℕ) : List α := (List.range n).map fun i => m (pos d h i)

/-! ## Slots -/

theorem pos_of_lt (h : n + i < d) : pos d n i = n + i := Nat.mod_eq_of_lt h

theorem pos_of_ge (hge : d ≤ h + i) (hlt : h + i < 2 * d) : pos d h i = h + i - d := by
  rw [pos, Nat.mod_eq_sub_mod hge, Nat.mod_eq_of_lt (by omega)]

theorem pos_lt (hd : 0 < d) : pos d h i < d := Nat.mod_lt _ hd

theorem pos_pos : pos d (pos d h i) j = pos d h (i + j) := by
  rw [pos, pos, pos, Nat.mod_add_mod, Nat.add_assoc]

theorem pos_eq_iff (hh : h < d) (hi : i < d) (hj : j < d) :
    pos d h i = pos d h j ↔ i = j := by
  refine ⟨fun heq => ?_, fun heq => heq ▸ rfl⟩
  rcases Nat.lt_or_ge (h + i) d with hi' | hi' <;> rcases Nat.lt_or_ge (h + j) d with hj' | hj'
  · rw [pos_of_lt hi', pos_of_lt hj'] at heq
    omega
  · rw [pos_of_lt hi', pos_of_ge hj' (by omega)] at heq
    omega
  · rw [pos_of_ge hi' (by omega), pos_of_lt hj'] at heq
    omega
  · rw [pos_of_ge hi' (by omega), pos_of_ge hj' (by omega)] at heq
    omega

theorem count_of_le (hle : h ≤ t) (ht : t < d) : count d h t = t - h := by
  rw [count, Nat.mod_eq_sub_mod (by omega), Nat.mod_eq_of_lt (by omega)]
  omega

theorem count_of_gt (hgt : t < h) (hh : h < d) : count d h t = t + d - h :=
  Nat.mod_eq_of_lt (by omega)

theorem count_lt (hd : 0 < d) : count d h t < d := Nat.mod_lt _ hd

theorem pos_count (hh : h < d) (ht : t < d) : pos d h (count d h t) = t := by
  rcases Nat.lt_or_ge t h with hlt | hge
  · rw [count_of_gt hlt hh, pos_of_ge (by omega) (by omega)]
    omega
  · rw [count_of_le hge ht, pos_of_lt (by omega)]
    omega

theorem count_pos (hh : h < d) (hi : i < d) : count d h (pos d h i) = i :=
  (pos_eq_iff hh (count_lt (by omega)) hi).mp (pos_count hh (pos_lt (by omega)))

theorem count_eq_zero_iff (hh : h < d) (ht : t < d) : count d h t = 0 ↔ t = h := by
  rcases Nat.lt_or_ge t h with hlt | hge
  · rw [count_of_gt hlt hh]
    omega
  · rw [count_of_le hge ht]
    omega

/-- Moving the head over `n` elements leaves the others. -/
theorem count_advance (hh : h < d) (ht : t < d) (hn : n ≤ count d h t) :
    count d (pos d h n) t = count d h t - n := by
  have hd : 0 < d := by omega
  have hlt := count_lt (h := h) (t := t) hd
  have hpos : pos d (pos d h n) (count d h t - n) = t := by
    rw [pos_pos, Nat.add_sub_cancel' hn, pos_count hh ht]
  calc
    count d (pos d h n) t = count d (pos d h n) (pos d (pos d h n) (count d h t - n)) := by
      rw [hpos]
    _ = count d h t - n := count_pos (pos_lt hd) (by omega)

/-- Moving the tail over one more slot adds an element. -/
theorem count_succ (hh : h < d) (ht : t < d) (hn : count d h t + 1 < d) :
    count d h ((t + 1) % d) = count d h t + 1 := by
  have hnext : (t + 1) % d = pos d h (count d h t + 1) := by
    rw [← pos_pos, pos_count hh ht, pos]
  rw [hnext, count_pos hh hn]

/-- The next slot is the head when one slot is left free. -/
theorem succ_eq_head_iff (hh : h < d) (ht : t < d) : (t + 1) % d = h ↔ count d h t + 1 = d := by
  rcases Nat.lt_or_ge (count d h t + 1) d with hlt | hge
  · have hsucc := count_succ hh ht hlt
    constructor
    · intro heq
      rw [heq, (count_eq_zero_iff hh hh).mpr rfl] at hsucc
      omega
    · omega
  · have hlt := count_lt (h := h) (t := t) (show 0 < d by omega)
    have hnext : (t + 1) % d = pos d h (count d h t + 1) := by
      rw [← pos_pos, pos_count hh ht, pos]
    have hfull : count d h t + 1 = d := by omega
    rw [hnext, hfull, pos, Nat.add_mod_right, Nat.mod_eq_of_lt hh]
    simp

/-- The slots of a window of `d` consecutive numbers are different. -/
theorem mod_eq_iff_of_window {a : ℕ} (hi : a ≤ i) (hid : i < a + d) (hj : a ≤ j)
    (hjd : j < a + d) : i % d = j % d ↔ i = j := by
  refine ⟨fun heq => ?_, fun heq => heq ▸ rfl⟩
  rcases Nat.le_total i j with hle | hle
  · have hzero : (j - i) % d = 0 := Nat.sub_mod_eq_zero_of_mod_eq heq.symm
    rw [Nat.mod_eq_of_lt (by omega)] at hzero
    omega
  · have hzero : (i - j) % d = 0 := Nat.sub_mod_eq_zero_of_mod_eq heq
    rw [Nat.mod_eq_of_lt (by omega)] at hzero
    omega

/-- A position and the number of its lap move together. -/
theorem advance (n d : ℕ) :
    (n % d + 1) % d = (n + 1) % d ∧ (n + 1) / d = n / d + if (n + 1) % d = 0 then 1 else 0 := by
  refine ⟨Nat.mod_add_mod n d 1, ?_⟩
  rw [Nat.succ_div]
  simp only [Nat.dvd_iff_mod_eq_zero]

/-! ## Content -/

@[simp] theorem slice_zero (m : ℕ → α) (p : ℕ) : slice m p 0 = [] := rfl

@[simp] theorem content_zero (m : ℕ → α) : content m d h 0 = [] := rfl

@[simp] theorem length_slice (m : ℕ → α) (p n : ℕ) : (slice m p n).length = n := by
  simp [slice]

@[simp] theorem length_content (m : ℕ → α) : (content m d h n).length = n := by
  simp [content]

theorem slice_succ (m : ℕ → α) (p n : ℕ) : slice m p (n + 1) = m p :: slice m (p + 1) n := by
  simp only [slice, List.range_succ_eq_map, List.map_cons, List.map_map, Nat.add_zero]
  congr 1
  apply List.map_congr_left
  intro i _
  simp only [Function.comp_apply]
  congr 1
  omega

theorem content_add (m : ℕ → α) (a b : ℕ) :
    content m d h (a + b) = content m d h a ++ content m d (pos d h a) b := by
  simp only [content, List.range_add, List.map_append, List.map_map]
  congr 1
  apply List.map_congr_left
  intro i _
  simp [pos_pos]

theorem drop_content (m : ℕ → α) {k : ℕ} (hn : n ≤ k) :
    (content m d h k).drop n = content m d (pos d h n) (k - n) := by
  obtain ⟨l, rfl⟩ := Nat.exists_eq_add_of_le hn
  rw [content_add, List.drop_left' (by simp), Nat.add_sub_cancel_left]

theorem take_content (m : ℕ → α) {k : ℕ} (hn : n ≤ k) :
    (content m d h k).take n = content m d h n := by
  obtain ⟨l, rfl⟩ := Nat.exists_eq_add_of_le hn
  rw [content_add, List.take_left' (by simp)]

theorem content_succ (m : ℕ → α) (hh : h < d) (ht : t < d) :
    content m d h (count d h t + 1) = content m d h (count d h t) ++ [m t] := by
  rw [content_add, pos_count hh ht]
  simp [content, pos_of_lt (show t + 0 < d by omega)]

theorem content_congr {m m' : ℕ → α} {h' : ℕ} (heq : ∀ i < n, m (pos d h i) = m' (pos d h' i)) :
    content m d h n = content m' d h' n :=
  List.map_congr_left fun i hi => heq i (List.mem_range.mp hi)

theorem content_mod (m : ℕ → α) {h' : ℕ} (heq : h % d = h' % d) (n : ℕ) :
    content m d h n = content m d h' n := by
  apply content_congr
  intro i _
  rw [pos, pos, Nat.add_mod, heq, ← Nat.add_mod]

theorem content_cons (m : ℕ → α) (n : ℕ) :
    content m d h (n + 1) = m (h % d) :: content m d (h + 1) n := by
  have hone : content m d h 1 = [m (h % d)] := by simp [content, pos]
  rw [Nat.add_comm, content_add, hone, List.singleton_append,
    content_mod m (show pos d h 1 % d = (h + 1) % d from Nat.mod_mod _ _)]

/-- The slot that the content has left may be written. -/
theorem content_update_head (m : ℕ → α) (c : α) (hn : n < d) :
    content (Function.update m (h % d) c) d (h + 1) n = content m d (h + 1) n := by
  apply content_congr
  intro i hi
  apply Function.update_of_ne
  rw [pos, Ne, mod_eq_iff_of_window (a := h) (by omega) (by omega) (by omega) (by omega)]
  omega

theorem content_eq_slice (m : ℕ → α) (hfit : h + n ≤ d) : content m d h n = slice m h n := by
  apply List.map_congr_left
  intro i hi
  have := List.mem_range.mp hi
  rw [pos_of_lt (by omega)]

/-- The content from `h` to a tail behind the wrap is the end of the memory and
then its beginning. -/
theorem content_wrap (m : ℕ → α) (hh : h < d) (n : ℕ) :
    content m d h (d - h + n) = slice m h (d - h) ++ content m d 0 n := by
  have hzero : pos d h (d - h) = 0 := by
    rw [pos_of_ge (by omega) (by omega)]
    omega
  rw [content_add, content_eq_slice m (by omega), hzero]

theorem slice_add (m : ℕ → α) (p a b : ℕ) :
    slice m p (a + b) = slice m p a ++ slice m (p + a) b := by
  simp only [slice, List.range_add, List.map_append, List.map_map]
  congr 1
  apply List.map_congr_left
  intro i _
  simp [Nat.add_assoc]

/-- The content of a full ring is the memory, from wherever it is read. -/
theorem content_perm (m : ℕ → α) (hh : h < d) : (content m d h d).Perm (slice m 0 d) := by
  have hwrap : content m d h d = slice m h (d - h) ++ slice m 0 h := by
    rw [← content_eq_slice (h := 0) (n := h) m (show 0 + h ≤ d by omega), ← content_wrap m hh h,
      Nat.sub_add_cancel (Nat.le_of_lt hh)]
  have hsplit : slice m 0 d = slice m 0 h ++ slice m h (d - h) := by
    rw [← Nat.add_sub_cancel' (Nat.le_of_lt hh), slice_add, Nat.add_sub_cancel_left, Nat.zero_add]
  rw [hwrap, hsplit]
  exact List.perm_append_comm

/-- A slot outside the content may be written. -/
theorem content_update (m : ℕ → α) (c : α) (hh : h < d) (ht : t < d) (hn : n ≤ count d h t) :
    content (Function.update m t c) d h n = content m d h n := by
  have hd : 0 < d := by omega
  have hlt := count_lt (h := h) (t := t) hd
  apply content_congr
  intro i hi
  apply Function.update_of_ne
  rw [← pos_count hh ht, Ne, pos_eq_iff hh (by omega) hlt]
  omega

/-! ## Writing -/

/-- Write a list to adjacent slots. -/
def fill (m : ℕ → α) (p : ℕ) : List α → ℕ → α
  | [] => m
  | c :: l => fill (Function.update m p c) (p + 1) l

/-- Write a list around the ring. -/
def put (m : ℕ → α) (d p : ℕ) : List α → ℕ → α
  | [] => m
  | c :: l => put (Function.update m (p % d) c) d (p + 1) l

theorem fill_of_not_mem (m : ℕ → α) {p q : ℕ} {l : List α} (h : q < p ∨ p + l.length ≤ q) :
    fill m p l q = m q := by
  induction l generalizing m p with
  | nil => rfl
  | cons c l ih =>
      rw [List.length_cons] at h
      rw [fill, ih _ (by omega)]
      exact Function.update_of_ne (by omega) _ _

theorem slice_congr {m m' : ℕ → α} {p : ℕ} (heq : ∀ i < n, m (p + i) = m' (p + i)) :
    slice m p n = slice m' p n :=
  List.map_congr_left fun i hi => heq i (List.mem_range.mp hi)

theorem slice_fill (m : ℕ → α) (p : ℕ) (l : List α) : slice (fill m p l) p l.length = l := by
  induction l generalizing m p with
  | nil => rfl
  | cons c l ih =>
      rw [List.length_cons, slice_succ, fill, ih, fill_of_not_mem _ (by omega),
        Function.update_self]

theorem slice_fill_of_disjoint (m : ℕ → α) {p q : ℕ} {l : List α}
    (h : q + n ≤ p ∨ p + l.length ≤ q) : slice (fill m p l) q n = slice m q n :=
  slice_congr fun i hi => fill_of_not_mem m (by omega)

/-- What is written behind the content is added to it, as far as there is room. -/
theorem content_put (m : ℕ → α) {p : ℕ} {l : List α} (hp : p % d = pos d h n)
    (hroom : n + l.length ≤ d) :
    content (put m d p l) d h (n + l.length) = content m d h n ++ l := by
  induction l generalizing m p n with
  | nil => simp [put]
  | cons c l ih =>
      rw [List.length_cons] at hroom
      have hnext : (p + 1) % d = pos d h (n + 1) := by
        rw [Nat.add_mod, hp, pos, ← Nat.add_mod, pos, Nat.add_assoc]
      have hold : content (Function.update m (p % d) c) d h n = content m d h n := by
        apply content_congr
        intro i hi
        apply Function.update_of_ne
        rw [hp, pos, pos, Ne, mod_eq_iff_of_window (a := h) (by omega) (by omega) (by omega)
          (by omega)]
        omega
      have hnew : content (Function.update m (p % d) c) d h (n + 1) = content m d h n ++ [c] := by
        have hslot : pos d (pos d h n) 0 = p % d := by rw [pos_pos, Nat.add_zero, hp]
        rw [content_add, hold]
        simp [content, hslot]
      rw [List.length_cons, put, show n + (l.length + 1) = n + 1 + l.length by omega,
        ih _ hnext (by omega), hnew, List.append_assoc, List.singleton_append]

/-! ## Block moves -/

/-- Copy `n` slots from `src` to `dst`, the last one first. -/
def blit (m : ℕ → α) (src dst : ℕ) : ℕ → ℕ → α
  | 0 => m
  | n + 1 => blit (Function.update m (dst + n) (m (src + n))) src dst n

theorem blit_of_not_mem (m : ℕ → α) (src dst n : ℕ) {p : ℕ} (hp : p < dst ∨ dst + n ≤ p) :
    blit m src dst n p = m p := by
  induction n generalizing m with
  | zero => rfl
  | succ n ih =>
      rw [blit, ih _ (by omega)]
      exact Function.update_of_ne (by omega) _ _

/-- Copying backwards reads the old values when the destination does not start
below an overlapping source. -/
theorem blit_apply (m : ℕ → α) {src dst n : ℕ} (hsafe : src ≤ dst ∨ dst + n ≤ src) (hi : i < n) :
    blit m src dst n (dst + i) = m (src + i) := by
  induction n generalizing m with
  | zero => omega
  | succ n ih =>
      rw [blit]
      rcases Nat.lt_or_ge i n with hin | hin
      · rw [ih _ (by omega) hin]
        exact Function.update_of_ne (by omega) _ _
      · obtain rfl : i = n := by omega
        rw [blit_of_not_mem _ _ _ _ (by omega)]
        exact Function.update_self _ _ _

/-- A slot that a move neither reads nor writes may be written before it. -/
theorem blit_update (m : ℕ → α) (c : α) {src dst n p : ℕ} (hsrc : p < src ∨ src + n ≤ p)
    (hdst : p < dst ∨ dst + n ≤ p) :
    blit (Function.update m p c) src dst n = Function.update (blit m src dst n) p c := by
  induction n generalizing m with
  | zero => rfl
  | succ n ih =>
      rw [blit, blit, Function.update_of_ne (by omega), Function.update_comm (by omega),
        ih _ (by omega) (by omega)]

end Ring
