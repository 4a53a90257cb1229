import Mathlib.Data.Nat.Notation
import Mathlib.Data.Nat.Digits.Defs

/-!
# Programs that scan a buffer

A program reads ranges of a buffer and may fail.  What it reads is recorded,
whatever its outcome is, so that a program can be shown to stay inside the
buffer: a sequence of two programs stays inside it exactly if the first does and
the second does after every value that the first returns.
-/

/-- The bytes from `off` on, `len` of them. -/
structure Extent where
  off : ℕ
  len : ℕ
  deriving DecidableEq, Repr

/-- From the memory that starts at the buffer, the result and what was read. -/
def Scan (α : Type) := (ℕ → UInt8) → Option α × List Extent

namespace Scan

variable {α β : Type}

def result (p : Scan α) (b : ℕ → UInt8) : Option α := (p b).1

def extents (p : Scan α) (b : ℕ → UInt8) : List Extent := (p b).2

def fail : Scan α := fun _ => (none, [])

/-- Go on if `p` holds. -/
def check (p : Prop) [Decidable p] : Scan Unit :=
  fun _ => (if p then some () else none, [])

/-- What a part of the program that reads nothing answers. -/
def answer (r : Option α) : Scan α := fun _ => (r, [])

def bytes (b : ℕ → UInt8) (off len : ℕ) : List UInt8 :=
  (List.range len).map fun i => b (off + i)

def read (off len : ℕ) : Scan (List UInt8) :=
  fun b => (some (bytes b off len), [⟨off, len⟩])

/-- The word that the bytes make, the lowest byte first. -/
def word (bs : List UInt8) : ℕ := Nat.ofDigits 256 (bs.map UInt8.toNat)

def u32 (b : ℕ → UInt8) (off : ℕ) : ℕ := word (bytes b off 4)

def readU32 (off : ℕ) : Scan ℕ := fun b => (some (u32 b off), [⟨off, 4⟩])

def readByte (off : ℕ) : Scan UInt8 := fun b => (some (b off), [⟨off, 1⟩])

instance : Monad Scan where
  pure a := fun _ => (some a, [])
  bind p f := fun b => match p b with
    | (none, es) => (none, es)
    | (some a, es) => ((f a b).1, es ++ (f a b).2)

/-- Every read of `p` lies in the first `n` bytes. -/
def Within (n : ℕ) (p : Scan α) (b : ℕ → UInt8) : Prop :=
  ∀ e ∈ p.extents b, e.off + e.len ≤ n

instance (n : ℕ) (p : Scan α) (b : ℕ → UInt8) : Decidable (Within n p b) :=
  inferInstanceAs (Decidable (∀ e ∈ p.extents b, e.off + e.len ≤ n))

variable {b : ℕ → UInt8} {n off len : ℕ}

@[simp] theorem length_bytes : (bytes b off len).length = len := by
  simp [bytes]

@[simp] theorem result_pure {a : α} : (pure a : Scan α).result b = some a := rfl

@[simp] theorem result_fail : (fail : Scan α).result b = none := rfl

@[simp] theorem result_answer {r : Option α} : (answer r).result b = r := rfl

@[simp] theorem result_read : (read off len).result b = some (bytes b off len) := rfl

@[simp] theorem result_readU32 : (readU32 off).result b = some (u32 b off) := rfl

@[simp] theorem result_readByte : (readByte off).result b = some (b off) := rfl

theorem bytes_add {m : ℕ} : bytes b off (len + m) = bytes b off len ++ bytes b (off + len) m := by
  simp [bytes, List.range_add, Function.comp_def, Nat.add_assoc]

theorem bytes_eq_replicate {v : UInt8} :
    bytes b off len = List.replicate len v ↔ ∀ i, off ≤ i → i < off + len → b i = v := by
  rw [List.eq_replicate_iff]
  constructor
  · rintro ⟨-, hall⟩ i hle hlt
    refine hall _ (List.mem_map.mpr ⟨i - off, List.mem_range.mpr (by omega), ?_⟩)
    rw [Nat.add_sub_cancel' hle]
  · refine fun hall => ⟨length_bytes, fun v hv => ?_⟩
    obtain ⟨i, hi, rfl⟩ := List.mem_map.mp hv
    exact hall _ (by omega) (by have := List.mem_range.mp hi; omega)

@[simp] theorem result_check {p : Prop} [Decidable p] {u : Unit} :
    (check p).result b = some u ↔ p := by
  simp [check, result]

/-- A sequence succeeds exactly if its parts do, one after the other. -/
@[simp] theorem result_bind {p : Scan α} {f : α → Scan β} {c : β} :
    (p >>= f).result b = some c ↔
      ∃ a, p.result b = some a ∧ (f a).result b = some c := by
  rcases hp : p b with ⟨_ | a, es⟩ <;> simp [result, bind, hp]

theorem result_bind_eq {p : Scan α} {f : α → Scan β} :
    (p >>= f).result b = (p.result b).bind fun a => (f a).result b := by
  rcases hp : p b with ⟨_ | a, es⟩ <;> simp [result, bind, hp]

theorem result_check_eq {p : Prop} [Decidable p] :
    (check p).result b = if p then some () else none := rfl

@[simp] theorem within_pure {a : α} : Within n (pure a : Scan α) b := by
  intro e he
  cases he

@[simp] theorem within_fail : Within n (fail : Scan α) b := by
  intro e he
  cases he

@[simp] theorem within_answer {r : Option α} : Within n (answer r) b := by
  intro e he
  cases he

@[simp] theorem within_check {p : Prop} [Decidable p] : Within n (check p) b := by
  intro e he
  cases he

@[simp] theorem within_read : Within n (read off len) b ↔ off + len ≤ n := by
  simp [Within, extents, read]

@[simp] theorem within_readByte : Within n (readByte off) b ↔ off < n := by
  constructor
  · intro h
    exact h ⟨off, 1⟩ (List.mem_singleton.mpr rfl)
  · intro h e he
    obtain rfl := List.mem_singleton.mp he
    exact h

@[simp] theorem within_readU32 : Within n (readU32 off) b ↔ off + 4 ≤ n := by
  simp [Within, extents, readU32]

/-- A sequence stays inside exactly if its first part does, and the rest does
after what the first part returns. -/
@[simp] theorem within_bind {p : Scan α} {f : α → Scan β} :
    Within n (p >>= f) b ↔
      Within n p b ∧ ∀ a, p.result b = some a → Within n (f a) b := by
  rcases hp : p b with ⟨_ | a, es⟩
  · simp [Within, extents, result, bind, hp]
  · simp [Within, extents, result, bind, hp, or_imp, forall_and]

end Scan
