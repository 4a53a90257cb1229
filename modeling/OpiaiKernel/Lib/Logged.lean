import Mathlib.Data.Nat.Notation

/-!
# Programs that log what they do

A program changes a state, returns a value and logs events.  Whether all events
satisfy a predicate is decided part by part: those of the first program, and
those of the second from the state and on the value that the first leaves.
-/

/-- From a state, the value and the state that the program leaves, and its events. -/
def Logged (Event State α : Type) := State → (α × State) × List Event

namespace Logged

variable {Event State α β γ : Type}

def value (p : Logged Event State α) (s : State) : α := (p s).1.1

def after (p : Logged Event State α) (s : State) : State := (p s).1.2

def events (p : Logged Event State α) (s : State) : List Event := (p s).2

def log (e : Event) (a : α) : Logged Event State α := fun s => ((a, s), [e])

def get : Logged Event State State := fun s => ((s, s), [])

def modify (f : State → State) : Logged Event State Unit := fun s => (((), f s), [])

instance : Monad (Logged Event State) where
  pure a := fun s => ((a, s), [])
  bind p f := fun s =>
    ((f (p s).1.1 (p s).1.2).1, (p s).2 ++ (f (p s).1.1 (p s).1.2).2)

def when (c : Prop) [Decidable c] (p : Logged Event State Unit) : Logged Event State Unit :=
  if c then p else pure ()

def Every (P : Event → Prop) (p : Logged Event State α) (s : State) : Prop :=
  ∀ e ∈ p.events s, P e

/-- What the program changes is no part of the value of `g`. -/
def Keeps (g : State → γ) (p : Logged Event State α) : Prop := ∀ s, g (p.after s) = g s

variable {P : Event → Prop} {p : Logged Event State α} {f : α → Logged Event State β} {s : State}
  {g : State → γ}

@[simp] theorem value_pure (a : α) : (pure a : Logged Event State α).value s = a := rfl

@[simp] theorem value_bind : (p >>= f).value s = (f (p.value s)).value (p.after s) := rfl

@[simp] theorem after_pure (a : α) : (pure a : Logged Event State α).after s = s := rfl

@[simp] theorem after_bind : (p >>= f).after s = (f (p.value s)).after (p.after s) := rfl

@[simp] theorem after_when (c : Prop) [Decidable c] (q : Logged Event State Unit) :
    (when c q).after s = if c then q.after s else s := by
  by_cases h : c <;> simp [when, h]

@[simp] theorem every_pure (a : α) : Every P (pure a : Logged Event State α) s := by
  intro e he
  cases he

@[simp] theorem every_modify (g : State → State) :
    Every P (modify g : Logged Event State Unit) s := by
  intro e he
  cases he

@[simp] theorem every_log (e : Event) (a : α) :
    Every P (log e a : Logged Event State α) s ↔ P e := by
  simp [Every, events, log]

@[simp] theorem every_bind :
    Every P (p >>= f) s ↔ Every P p s ∧ Every P (f (p.value s)) (p.after s) := by
  change (∀ e ∈ p.events s ++ (f (p.value s)).events (p.after s), P e) ↔ _
  rw [List.forall_mem_append]
  rfl

@[simp] theorem every_when (c : Prop) [Decidable c] (q : Logged Event State Unit) :
    Every P (when c q) s ↔ (c → Every P q s) := by
  by_cases h : c <;> simp [when, h]

theorem keeps_pure (a : α) : Keeps g (pure a : Logged Event State α) := fun _ => rfl

theorem keeps_get : Keeps g (get : Logged Event State State) := fun _ => rfl

theorem keeps_log (e : Event) (a : α) : Keeps g (log e a : Logged Event State α) := fun _ => rfl

theorem keeps_modify {k : State → State} (h : ∀ s, g (k s) = g s) :
    Keeps g (modify k : Logged Event State Unit) := h

theorem keeps_bind (hp : Keeps g p) (hf : ∀ a, Keeps g (f a)) : Keeps g (p >>= f) := by
  intro s
  rw [after_bind, hf, hp]

theorem keeps_when {c : Prop} [Decidable c] {q : Logged Event State Unit} (hq : Keeps g q) :
    Keeps g (when c q) := by
  intro s
  rw [after_when]
  split
  · exact hq s
  · rfl

end Logged
