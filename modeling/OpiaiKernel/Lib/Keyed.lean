import Mathlib.Data.List.Nodup
import Mathlib.Tactic.TypeStar

/-!
# Lists of records with keys

A linked list whose records are told apart by a key: look a record up, write
through a pointer to it, unlink it.  A list is focused on a record by splitting
it off the others; a write changes only the record in focus, and unlinking it
leaves the others.
-/

namespace Keyed

variable {α κ : Type*} {key : α → κ} {k : κ} {a b : α} {l l' rest : List α}

/-! ## Distinct keys -/

def Uniq (key : α → κ) (l : List α) : Prop := (l.map key).Nodup

theorem Uniq.perm (h : Uniq key l) (hp : l.Perm l') : Uniq key l' :=
  (hp.map key).nodup_iff.mp h

theorem Uniq.tail (h : Uniq key (a :: l)) : Uniq key l := (List.nodup_cons.mp h).2

theorem Uniq.ne_of_tail (h : Uniq key (a :: l)) (hb : b ∈ l) : key b ≠ key a := by
  intro heq
  exact (List.nodup_cons.mp h).1 (heq ▸ List.mem_map_of_mem hb)

theorem Uniq.eq_of_key (h : Uniq key l) (ha : a ∈ l) (hb : b ∈ l) (hkey : key a = key b) :
    a = b :=
  List.inj_on_of_nodup_map h ha hb hkey

/-- A record with a new key may be added. -/
theorem Uniq.cons (h : Uniq key l) (ha : ∀ b ∈ l, key b ≠ key a) : Uniq key (a :: l) := by
  refine List.nodup_cons.mpr ⟨?_, h⟩
  rw [List.mem_map]
  rintro ⟨b, hb, heq⟩
  exact ha b hb heq

/-- `l` is `a` and the records of `rest`, which have other keys. -/
structure Focus (key : α → κ) (l : List α) (a : α) (rest : List α) : Prop where
  perm : l.Perm (a :: rest)
  apart : ∀ b ∈ rest, key b ≠ key a

theorem Focus.mem (h : Focus key l a rest) : a ∈ l := h.perm.mem_iff.mpr List.mem_cons_self

theorem Focus.mem_iff (h : Focus key l a rest) : b ∈ l ↔ b = a ∨ b ∈ rest :=
  h.perm.mem_iff.trans List.mem_cons

theorem Focus.snoc (h : ∀ b ∈ l, key b ≠ key a) : Focus key (l ++ [a]) a l :=
  ⟨List.perm_append_singleton a l, h⟩

/-! ## Lookup, write and unlink -/

variable [DecidableEq κ]

def get (key : α → κ) (k : κ) (l : List α) : Option α := l.find? fun a => key a = k

def modify (key : α → κ) (k : κ) (f : α → α) (l : List α) : List α :=
  l.map fun a => if key a = k then f a else a

def remove (key : α → κ) (k : κ) (l : List α) : List α := l.filter fun a => key a ≠ k

theorem mem_of_get (h : get key k l = some a) : a ∈ l := List.mem_of_find?_eq_some h

theorem key_of_get (h : get key k l = some a) : key a = k := by
  simpa using List.find?_some h

theorem get_eq_none : get key k l = none ↔ ∀ a ∈ l, key a ≠ k := by
  simp [get]

@[simp] theorem mem_remove : b ∈ remove key k l ↔ b ∈ l ∧ key b ≠ k := by
  simp [remove]

theorem map_modify {β : Type*} {g : α → β} {f : α → α} (hf : ∀ a, g (f a) = g a) :
    (modify key k f l).map g = l.map g := by
  rw [modify, List.map_map]
  apply List.map_congr_left
  intro a _
  by_cases hk : key a = k <;> simp [hk, hf]

theorem modify_eq_self {f : α → α} (h : ∀ a ∈ l, key a ≠ k) : modify key k f l = l := by
  rw [modify, List.map_congr_left (g := id) fun a ha => by simp [h a ha], List.map_id]

/-- Writing a record to its place changes nothing. -/
theorem Uniq.modify_self (h : Uniq key l) (ha : a ∈ l) : modify key (key a) (fun _ => a) l = l := by
  rw [modify, List.map_congr_left (g := id) fun b hb => ?_, List.map_id]
  split
  · rename_i hkey
    exact (h.eq_of_key hb ha hkey).symm
  · rfl

theorem Uniq.unlink (h : Uniq key l) : Uniq key (remove key k l) :=
  h.sublist (List.filter_sublist.map key)

theorem remove_eq_self (h : ∀ a ∈ l, key a ≠ k) : remove key k l = l := by
  simpa [remove, List.filter_eq_self] using h

theorem modify_cons_self {f : α → α} (h : Uniq key (a :: l)) :
    modify key (key a) f (a :: l) = f a :: l := by
  have hrest : modify key (key a) f l = l := modify_eq_self fun c hc => h.ne_of_tail hc
  simp only [modify, List.map_cons, if_true, List.cons.injEq, true_and]
  exact hrest

theorem modify_cons_ne {f : α → α} (h : key b ≠ k) :
    modify key k f (b :: l) = b :: modify key k f l := by
  simp [modify, h]

theorem remove_cons_self (h : Uniq key (a :: l)) : remove key (key a) (a :: l) = l := by
  rw [remove, List.filter_cons_of_neg (by simp)]
  exact remove_eq_self fun c hc => h.ne_of_tail hc

theorem remove_cons_ne (h : key b ≠ k) : remove key k (b :: l) = b :: remove key k l := by
  simp [remove, h]

theorem Uniq.focus (h : Uniq key l) (ha : a ∈ l) : Focus key l a (remove key (key a) l) := by
  refine ⟨?_, fun b hb => (mem_remove.mp hb).2⟩
  induction l with
  | nil => simp at ha
  | cons b l ih =>
      rcases List.mem_cons.mp ha with rfl | ha
      · rw [remove_cons_self h]
      · rw [remove_cons_ne (h.ne_of_tail ha).symm]
        exact ((ih h.tail ha).cons b).trans (List.Perm.swap _ _ _)

namespace Focus

variable (h : Focus key l a rest)

include h

theorem modify {f : α → α} (hf : key (f a) = key a) :
    Focus key (Keyed.modify key (key a) f l) (f a) rest := by
  refine ⟨?_, fun b hb => hf ▸ h.apart b hb⟩
  have hperm := h.perm.map fun b => if key b = key a then f b else b
  simp only [List.map_cons, if_true] at hperm
  refine hperm.trans (List.Perm.of_eq ?_)
  congr 1
  exact modify_eq_self h.apart

theorem remove : (Keyed.remove key (key a) l).Perm rest := by
  have hperm := h.perm.filter fun b => key b ≠ key a
  rw [List.filter_cons_of_neg (by simp)] at hperm
  exact hperm.trans (List.Perm.of_eq (remove_eq_self h.apart))

theorem get : Keyed.get key (key a) l = some a := by
  cases hget : Keyed.get key (key a) l with
  | none => exact absurd rfl (get_eq_none.mp hget a h.mem)
  | some b =>
      rcases h.mem_iff.mp (mem_of_get hget) with rfl | hb
      · rfl
      · exact absurd (key_of_get hget) (h.apart b hb)

end Focus

theorem Uniq.get_iff (h : Uniq key l) : get key k l = some a ↔ a ∈ l ∧ key a = k := by
  refine ⟨fun hget => ⟨mem_of_get hget, key_of_get hget⟩, ?_⟩
  rintro ⟨ha, rfl⟩
  exact (h.focus ha).get

/-- A lookup depends only on the records with the key. -/
theorem Uniq.get_congr (h : Uniq key l) (h' : Uniq key l')
    (hiff : ∀ a, key a = k → (a ∈ l' ↔ a ∈ l)) : get key k l' = get key k l := by
  refine Option.ext fun a => ?_
  rw [h.get_iff, h'.get_iff]
  exact and_congr_left fun hkey => hiff a hkey

end Keyed
