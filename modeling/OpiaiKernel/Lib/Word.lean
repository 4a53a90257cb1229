import Mathlib.Data.Nat.Notation
import Mathlib.Algebra.Ring.Nat

/-!
# Unsigned machine words

Unsigned C arithmetic of a fixed width, on natural numbers.
-/

namespace Word

/-- `a + b` in a `w`-bit word. -/
def add (w a b : ℕ) : ℕ := (a + b) % 2 ^ w

/-- `a - b` in a `w`-bit word. -/
def sub (w a b : ℕ) : ℕ := (a + (2 ^ w - b % 2 ^ w)) % 2 ^ w

theorem add_of_lt {w a b : ℕ} (h : a + b < 2 ^ w) : add w a b = a + b :=
  Nat.mod_eq_of_lt h

theorem sub_of_le {w a b : ℕ} (hab : b ≤ a) (ha : a < 2 ^ w) : sub w a b = a - b := by
  have hb : b % 2 ^ w = b := Nat.mod_eq_of_lt (by omega)
  rw [sub, hb, show a + (2 ^ w - b) = a - b + 2 ^ w by omega, Nat.add_mod_right]
  exact Nat.mod_eq_of_lt (by omega)

theorem add_lt (w a b : ℕ) : add w a b < 2 ^ w := Nat.mod_lt _ (Nat.two_pow_pos w)

theorem mod_add (w a b : ℕ) : add w (a % 2 ^ w) b = (a + b) % 2 ^ w := by
  rw [add, Nat.mod_add_mod]

theorem mod_sub {w a b : ℕ} (h : b ≤ a) : sub w (a % 2 ^ w) b = (a - b) % 2 ^ w := by
  have hb := Nat.div_add_mod b (2 ^ w)
  have hlt := Nat.mod_lt b (Nat.two_pow_pos w)
  have hsum : a + (2 ^ w - b % 2 ^ w) = a - b + 2 ^ w * (b / 2 ^ w + 1) := by
    rw [Nat.mul_add]
    omega
  rw [sub, Nat.mod_add_mod, hsum, Nat.add_mul_mod_self_left]

end Word
