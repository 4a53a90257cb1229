import Mathlib.Logic.Basic
import Mathlib.Tactic.TypeStar

/-!
# Labelled machines and their runs

A machine has a set of initial states and a partial, executable step for each
label.  Nondeterminism of the environment is carried by the labels.  Safety
statements quantify over the reachable states; statements that need a side
condition on every step of a run quantify over the states reached by steps
that meet the condition.
-/

/-- A machine over states `σ` whose steps are labelled by `ℓ`. -/
structure Machine (σ ℓ : Type*) where
  init : σ → Prop
  step : σ → ℓ → Option σ

namespace Machine

variable {σ ℓ : Type*} {M : Machine σ ℓ}

/-- The states reached by a run each of whose steps meets `ok`. -/
inductive ReachIf (M : Machine σ ℓ) (ok : σ → ℓ → Prop) : σ → Prop
  | start {s : σ} (h : M.init s) : ReachIf M ok s
  | next {s t : σ} (a : ℓ) (h : ReachIf M ok s) (hok : ok s a)
      (hstep : M.step s a = some t) : ReachIf M ok t

/-- The states reached by any run. -/
abbrev Reach (M : Machine σ ℓ) : σ → Prop := M.ReachIf fun _ _ => True

/-- An inductive invariant of the steps that meet `ok` holds in every state
they reach. -/
theorem ReachIf.invariant {ok : σ → ℓ → Prop} {P : σ → Prop}
    (hinit : ∀ s, M.init s → P s)
    (hstep : ∀ s a t, P s → ok s a → M.step s a = some t → P t)
    {s : σ} (h : M.ReachIf ok s) : P s := by
  induction h with
  | start hs => exact hinit _ hs
  | next a _ hok hst ih => exact hstep _ a _ ih hok hst

theorem ReachIf.mono {ok ok' : σ → ℓ → Prop} (himp : ∀ s a, ok s a → ok' s a)
    {s : σ} (h : M.ReachIf ok s) : M.ReachIf ok' s := by
  induction h with
  | start hs => exact .start hs
  | next a _ hok hst ih => exact .next a ih (himp _ _ hok) hst

theorem ReachIf.reach {ok : σ → ℓ → Prop} {s : σ} (h : M.ReachIf ok s) :
    M.Reach s :=
  h.mono fun _ _ _ => trivial

/-- Execute a list of labels. -/
def run (M : Machine σ ℓ) : σ → List ℓ → Option σ
  | s, [] => some s
  | s, a :: as => (M.step s a).bind fun t => M.run t as

/-- Whether every step of an executed list of labels meets `ok`. -/
def runOk (M : Machine σ ℓ) (ok : σ → ℓ → Prop) : σ → List ℓ → Prop
  | _, [] => True
  | s, a :: as => ok s a ∧ ∀ t ∈ M.step s a, M.runOk ok t as

instance decidableRunOk {ok : σ → ℓ → Prop} [∀ s a, Decidable (ok s a)] :
    ∀ s as, Decidable (M.runOk ok s as)
  | _, [] => isTrue trivial
  | s, a :: as =>
      match h : M.step s a with
      | none => decidable_of_iff (ok s a) (by simp [runOk, h])
      | some t =>
          have : Decidable (M.runOk ok t as) := decidableRunOk t as
          decidable_of_iff (ok s a ∧ M.runOk ok t as) (by simp [runOk, h])

theorem ReachIf.run {ok : σ → ℓ → Prop} {s t : σ} (as : List ℓ)
    (hs : M.ReachIf ok s) (hok : M.runOk ok s as) (hrun : M.run s as = some t) :
    M.ReachIf ok t := by
  induction as generalizing s with
  | nil => exact Option.some.inj hrun ▸ hs
  | cons a as ih =>
      obtain ⟨u, hu, hrest⟩ := Option.bind_eq_some_iff.mp hrun
      exact ih (hs.next a hok.1 hu) (hok.2 u hu) hrest

theorem Reach.run {s t : σ} (as : List ℓ) (hs : M.Reach s)
    (hrun : M.run s as = some t) : M.Reach t := by
  induction as generalizing s with
  | nil => exact Option.some.inj hrun ▸ hs
  | cons a as ih =>
      obtain ⟨u, hu, hrest⟩ := Option.bind_eq_some_iff.mp hrun
      exact ih (hs.next a trivial hu) hrest

/-- The state after an executed list of labels, when no step is refused. -/
def final (M : Machine σ ℓ) (s : σ) (as : List ℓ) : σ := (M.run s as).getD s

theorem run_eq_final {s : σ} {as : List ℓ} (h : (M.run s as).isSome) :
    M.run s as = some (M.final s as) := by
  obtain ⟨t, ht⟩ := Option.isSome_iff_exists.mp h
  simp [final, ht]

theorem Reach.final {s : σ} {as : List ℓ} (hs : M.Reach s) (h : (M.run s as).isSome) :
    M.Reach (M.final s as) :=
  hs.run as (run_eq_final h)

theorem ReachIf.final {ok : σ → ℓ → Prop} {s : σ} {as : List ℓ} (hs : M.ReachIf ok s)
    (hok : M.runOk ok s as) (h : (M.run s as).isSome) : M.ReachIf ok (M.final s as) :=
  hs.run as hok (run_eq_final h)

/-- Whether every state of an executed list of labels satisfies `P`. -/
def along (M : Machine σ ℓ) (P : σ → Prop) : σ → List ℓ → Prop
  | s, [] => P s
  | s, a :: as => P s ∧ ∀ t ∈ M.step s a, M.along P t as

/-- When a step keeps `P` exactly if it meets `ok`, so does a run. -/
theorem along_iff_runOk {ok : σ → ℓ → Prop} {I P : σ → Prop}
    (hinv : ∀ s a t, I s → M.step s a = some t → I t)
    (hstep : ∀ s a t, I s → P s → M.step s a = some t → (P t ↔ ok s a))
    (hrefused : ∀ s a, M.step s a = none → ok s a) {s : σ} {as : List ℓ} (hs : I s) (hp : P s) :
    M.along P s as ↔ M.runOk ok s as := by
  induction as generalizing s with
  | nil => simp [along, runOk, hp]
  | cons a as ih =>
      cases hst : M.step s a with
      | none => simp [along, runOk, hst, hp, hrefused s a hst]
      | some t =>
          have hiff := hstep s a t hs hp hst
          have ht : I t := hinv s a t hs hst
          have hhead : M.along P t as → P t := by
            cases as with
            | nil => exact id
            | cons b bs => exact And.left
          simp only [along, runOk, hst, Option.mem_def, Option.some.injEq, forall_eq', hp, true_and]
          constructor
          · intro h
            exact ⟨hiff.mp (hhead h), (ih ht (hhead h)).mp h⟩
          · rintro ⟨hok, h⟩
            exact (ih ht (hiff.mpr hok)).mpr h

end Machine
