import Mathlib.Data.List.Perm.Basic
import Mathlib.Data.Nat.Notation

/-!
# Bounded mailboxes

A mailbox remembers every message that ever arrived and what became of it.  The
messages that wait form a queue with a bound: a message that arrives at a full
queue overruns the oldest one that waits.  A message may also be taken, oldest
first, or be cleared out of turn.  The structure keeps that messages are taken in
the order of their arrival, and that one is overrun only when as many as the
queue holds came after it.
-/

namespace Mailbox

inductive Fate
  | waiting
  | taken
  | overrun
  | cleared
  deriving DecidableEq

variable {α : Type*} {room : ℕ} {t : List (α × Fate)} {f : Fate} {a : α}

/-- The messages with one fate, in the order of arrival. -/
def having (f : Fate) (t : List (α × Fate)) : List α := (t.filter (·.2 = f)).map Prod.fst

/-- Decide the fate of the oldest message that waits. -/
def settle (f : Fate) : List (α × Fate) → List (α × Fate)
  | [] => []
  | x :: t => if x.2 = .waiting then (x.1, f) :: t else x :: settle f t

/-- A message that waits is cleared if `p` holds of it. -/
def clearOne (p : α → Bool) (x : α × Fate) : α × Fate :=
  if x.2 = .waiting ∧ p x.1 then (x.1, .cleared) else x

/-- Behind a message that waits none was settled, and behind one that was overrun
there are `room` others. -/
def Kept (room : ℕ) : List (α × Fate) → Prop
  | [] => True
  | x :: t => (x.2 = .waiting → ∀ y ∈ t, y.2 = .waiting ∨ y.2 = .cleared) ∧
      (x.2 = .overrun → room ≤ t.length) ∧ Kept room t

theorem having_append (t u : List (α × Fate)) : having f (t ++ u) = having f t ++ having f u := by
  simp [having]

theorem having_cons (x : α × Fate) :
    having f (x :: t) = if x.2 = f then x.1 :: having f t else having f t := by
  by_cases h : x.2 = f <;> simp [having, h]

/-! ## Settling the oldest message -/

theorem map_settle : (settle f t).map Prod.fst = t.map Prod.fst := by
  induction t with
  | nil => rfl
  | cons x t ih =>
      rw [settle]
      split
      · rfl
      · rw [List.map_cons, List.map_cons, ih]

theorem length_settle : (settle f t).length = t.length := by
  simpa using congrArg List.length (map_settle (f := f) (t := t))

theorem waiting_settle (hf : f ≠ .waiting) :
    having .waiting (settle f t) = (having .waiting t).tail := by
  induction t with
  | nil => rfl
  | cons x t ih =>
      by_cases hx : x.2 = .waiting
      · simp [settle, having_cons, hx, hf]
      · simp [settle, having_cons, hx, ih]

/-- Behind a message that waits none was taken. -/
theorem Kept.taken_eq_nil {x : α × Fate} (h : Kept room (x :: t)) (hx : x.2 = .waiting) :
    having .taken t = [] := by
  rw [having, List.map_eq_nil_iff, List.filter_eq_nil_iff]
  intro y hy hty
  rcases h.1 hx y hy with h' | h' <;> simp [h'] at hty

/-- What was taken and what waits, in the order of arrival. -/
theorem Kept.sublist (h : Kept room t) :
    (having .taken t ++ having .waiting t).Sublist (t.map Prod.fst) := by
  induction t with
  | nil => exact .slnil
  | cons x t ih =>
      have ih := ih h.2.2
      rw [having_cons, having_cons, List.map_cons]
      by_cases hx : x.2 = .waiting
      · rw [if_pos hx, if_neg (by simp [hx]), h.taken_eq_nil hx]
        rw [h.taken_eq_nil hx] at ih
        exact ih.cons_cons x.1
      · rw [if_neg hx]
        split
        · exact ih.cons_cons x.1
        · exact ih.cons x.1

/-- What is taken goes behind what was taken before. -/
theorem taken_settle (h : Kept room t) :
    having .taken (settle .taken t) = having .taken t ++ (having .waiting t).head?.toList := by
  induction t with
  | nil => rfl
  | cons x t ih =>
      by_cases hx : x.2 = .waiting
      · simp [settle, having_cons, hx, h.taken_eq_nil hx]
      · have ih := ih h.2.2
        by_cases hy : x.2 = .taken <;> simp [settle, having_cons, hx, hy, ih]

theorem taken_settle_of_ne (hf : f ≠ .taken) : having .taken (settle f t) = having .taken t := by
  induction t with
  | nil => rfl
  | cons x t ih =>
      by_cases hx : x.2 = .waiting
      · simp [settle, having_cons, hx, hf]
      · simp [settle, having_cons, hx, ih]

theorem mem_settle {x : α × Fate} (h : x ∈ settle f t) : x ∈ t ∨ x.2 = f := by
  induction t with
  | nil => exact .inl h
  | cons y t ih =>
      rw [settle] at h
      split at h
      · rcases List.mem_cons.mp h with rfl | h
        · exact .inr rfl
        · exact .inl (List.mem_cons_of_mem y h)
      · rcases List.mem_cons.mp h with rfl | h
        · exact .inl List.mem_cons_self
        · exact (ih h).imp_left (List.mem_cons_of_mem y)

theorem Kept.settle (h : Kept room t) : Kept room (settle .taken t) := by
  induction t with
  | nil => exact h
  | cons x t ih =>
      rw [Mailbox.settle]
      split
      · exact ⟨nofun, nofun, h.2.2⟩
      · rename_i hx
        exact ⟨fun hw => absurd hw hx, fun hover => length_settle.symm ▸ h.2.1 hover, ih h.2.2⟩

/-! ## Arrivals -/

theorem length_having_le : (having f t).length ≤ t.length := by
  rw [having, List.length_map]
  exact List.length_filter_le _ t

theorem Kept.append (h : Kept room t) : Kept room (t ++ [(a, .waiting)]) := by
  induction t with
  | nil => exact ⟨by simp, nofun, trivial⟩
  | cons x t ih =>
      refine ⟨fun hw y hy => ?_, fun hx => ?_, ih h.2.2⟩
      · rcases List.mem_append.mp hy with hy | hy
        · exact h.1 hw y hy
        · rw [List.mem_singleton.mp hy]
          exact .inl rfl
      · have := h.2.1 hx
        change room ≤ (t ++ [(a, Fate.waiting)]).length
        rw [List.length_append, List.length_singleton]
        omega

/-- An arrival at a full queue leaves `room` messages behind the one it overruns. -/
theorem Kept.overrun (h : Kept room t) (hfull : room ≤ (having .waiting t).length) :
    Kept room (Mailbox.settle .overrun t ++ [(a, .waiting)]) := by
  induction t with
  | nil => exact ⟨by simp, nofun, trivial⟩
  | cons x t ih =>
      rw [Mailbox.settle]
      by_cases hx : x.2 = .waiting
      · rw [if_pos hx]
        refine ⟨nofun, fun _ => ?_, h.2.2.append⟩
        rw [having_cons, if_pos hx, List.length_cons] at hfull
        have hlen := length_having_le (f := .waiting) (t := t)
        change room ≤ (t ++ [(a, Fate.waiting)]).length
        rw [List.length_append, List.length_singleton]
        omega
      · rw [if_neg hx]
        rw [having_cons, if_neg hx] at hfull
        refine ⟨fun hw => absurd hw hx, fun hover => ?_, ih h.2.2 hfull⟩
        have := h.2.1 hover
        change room ≤ (Mailbox.settle .overrun t ++ [(a, Fate.waiting)]).length
        rw [List.length_append, List.length_singleton, length_settle]
        omega

/-! ## Clearing -/

theorem map_clear (p : α → Bool) : (t.map (clearOne p)).map Prod.fst = t.map Prod.fst := by
  rw [List.map_map]
  refine List.map_congr_left fun x _ => ?_
  simp only [Function.comp_apply, clearOne]
  split <;> rfl

theorem waiting_clear (p : α → Bool) :
    having .waiting (t.map (clearOne p)) = (having .waiting t).filter fun a => !p a := by
  induction t with
  | nil => rfl
  | cons x t ih =>
      obtain ⟨b, g⟩ := x
      rw [List.map_cons, having_cons, having_cons, ih]
      by_cases hp : p b <;> cases g <;> simp [clearOne, hp]

theorem taken_clear (p : α → Bool) : having .taken (t.map (clearOne p)) = having .taken t := by
  induction t with
  | nil => rfl
  | cons x t ih =>
      obtain ⟨b, g⟩ := x
      rw [List.map_cons, having_cons, having_cons, ih]
      by_cases hp : p b <;> cases g <;> simp [clearOne, hp]

theorem mem_cleared {p : α → Bool} (h : (a, .cleared) ∈ t.map (clearOne p)) :
    (a, .cleared) ∈ t ∨ p a = true := by
  obtain ⟨⟨b, g⟩, hmem, heq⟩ := List.mem_map.mp h
  rw [clearOne] at heq
  split at heq
  · rename_i hp
    obtain ⟨rfl, -⟩ := Prod.mk.injEq .. ▸ heq
    exact .inr hp.2
  · exact .inl (heq ▸ hmem)

theorem Kept.clear (h : Kept room t) (p : α → Bool) : Kept room (t.map (clearOne p)) := by
  induction t with
  | nil => exact h
  | cons x t ih =>
      have hx : ∀ g ≠ Fate.cleared, (clearOne p x).2 = g → x.2 = g := by
        intro g hg heq
        rw [clearOne] at heq
        split at heq
        · exact absurd heq.symm hg
        · exact heq
      refine ⟨fun hw y hy => ?_, fun hover => ?_, ih h.2.2⟩
      · obtain ⟨z, hz, rfl⟩ := List.mem_map.mp hy
        rw [clearOne]
        split
        · exact .inr rfl
        · exact h.1 (hx _ nofun hw) z hz
      · rw [List.length_map]
        exact h.2.1 (hx _ nofun hover)

end Mailbox

/-! ## The mailbox -/

/-- A mailbox whose queue holds `room` messages. -/
structure Mailbox (α : Type*) (room : ℕ) where
  trail : List (α × Mailbox.Fate)
  kept : Mailbox.Kept room trail
  bounded : (Mailbox.having .waiting trail).length ≤ room

namespace Mailbox

variable {α : Type*} {room : ℕ} {a : α} (m : Mailbox α room)

/-- Every message that arrived. -/
def messages : List α := m.trail.map Prod.fst

/-- The queue. -/
def waiting : List α := having .waiting m.trail

/-- The messages that were taken. -/
def taken : List α := having .taken m.trail

def new : Mailbox α room := ⟨[], trivial, Nat.zero_le _⟩

def arrive (a : α) (hroom : 0 < room) : Mailbox α room :=
  if h : m.waiting.length < room then
    { trail := m.trail ++ [(a, .waiting)]
      kept := m.kept.append
      bounded := by
        rw [having_append, List.length_append]
        exact h }
  else
    { trail := settle .overrun m.trail ++ [(a, .waiting)]
      kept := m.kept.overrun (Nat.le_of_not_lt h)
      bounded := by
        have hb := m.bounded
        rw [having_append, List.length_append, waiting_settle (by decide), List.length_tail]
        change _ + 1 ≤ room
        omega }

/-- The oldest message that waits is taken. -/
def take : Mailbox α room where
  trail := settle .taken m.trail
  kept := m.kept.settle
  bounded := by
    rw [waiting_settle (by decide), List.length_tail]
    exact Nat.le_trans (Nat.sub_le _ _) m.bounded

def clear (p : α → Bool) : Mailbox α room where
  trail := m.trail.map (clearOne p)
  kept := m.kept.clear p
  bounded := by
    rw [waiting_clear]
    exact Nat.le_trans (List.length_filter_le _ _) m.bounded

/-- The queue after an arrival: the oldest message gives way when the queue is full. -/
theorem waiting_arrive (hroom : 0 < room) : (m.arrive a hroom).waiting =
    (if m.waiting.length < room then m.waiting else m.waiting.tail) ++ [a] := by
  rw [arrive]
  split
  · exact having_append _ _
  · change having .waiting (settle .overrun m.trail ++ [(a, Fate.waiting)]) = _
    rw [having_append, waiting_settle (by decide)]
    rfl

@[simp] theorem messages_arrive (hroom : 0 < room) :
    (m.arrive a hroom).messages = m.messages ++ [a] := by
  rw [arrive]
  split
  · exact List.map_append
  · change (settle .overrun m.trail ++ [(a, Fate.waiting)]).map Prod.fst = _
    rw [List.map_append, map_settle]
    rfl

@[simp] theorem taken_arrive (hroom : 0 < room) : (m.arrive a hroom).taken = m.taken := by
  rw [arrive]
  split
  · exact (having_append _ _).trans (List.append_nil _)
  · change having .taken (settle .overrun m.trail ++ [(a, Fate.waiting)]) = _
    rw [having_append, taken_settle_of_ne (by decide)]
    exact List.append_nil _

@[simp] theorem messages_take : m.take.messages = m.messages := map_settle

@[simp] theorem waiting_take : m.take.waiting = m.waiting.tail := waiting_settle (by decide)

/-- What is taken is the head of the queue. -/
theorem taken_take : m.take.taken = m.taken ++ m.waiting.head?.toList := taken_settle m.kept

@[simp] theorem messages_clear (p : α → Bool) : (m.clear p).messages = m.messages := map_clear p

@[simp] theorem waiting_cleared (p : α → Bool) :
    (m.clear p).waiting = m.waiting.filter fun a => !p a :=
  waiting_clear p

@[simp] theorem taken_cleared (p : α → Bool) : (m.clear p).taken = m.taken := taken_clear p

/-- Messages are taken in the order of their arrival, none of them twice, and before
those that wait. -/
theorem taken_append_waiting : (m.taken ++ m.waiting).Sublist m.messages := m.kept.sublist

/-- A message is overrun when `room` later ones have arrived. -/
theorem length_of_overrun {before after : List (α × Fate)}
    (h : m.trail = before ++ (a, .overrun) :: after) : room ≤ after.length := by
  have hover := m.kept
  rw [h] at hover
  clear h
  induction before with
  | nil => exact hover.2.1 rfl
  | cons x before ih => exact ih hover.2.2

theorem cleared_arrive (hroom : 0 < room) {b : α}
    (h : (b, .cleared) ∈ (m.arrive a hroom).trail) : (b, .cleared) ∈ m.trail := by
  rw [arrive] at h
  split at h
  · simpa using h
  · have h' : (b, Fate.cleared) ∈ settle .overrun m.trail ++ [(a, .waiting)] := h
    rw [List.mem_append, List.mem_singleton] at h'
    rcases h' with h' | h'
    · exact (mem_settle h').resolve_right (by simp)
    · cases h'

theorem cleared_take {b : α} (h : (b, .cleared) ∈ m.take.trail) : (b, .cleared) ∈ m.trail :=
  (mem_settle h).resolve_right (by simp)

theorem cleared_clear {p : α → Bool} {b : α} (h : (b, .cleared) ∈ (m.clear p).trail) :
    (b, .cleared) ∈ m.trail ∨ p b = true :=
  mem_cleared h

end Mailbox
