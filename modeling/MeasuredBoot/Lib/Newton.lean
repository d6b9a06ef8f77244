import Mathlib.Algebra.Ring.Divisibility.Basic
import Mathlib.Tactic.Ring

/-!
# Inverses by Newton's iteration

A step from `x` to `x * (2 - m * x)` squares what `m * x` misses of one: where it was divisible by
`d`, it is divisible by `d ^ 2` after the step. In a ring where the power of `d` reached is zero the iteration
ends at an inverse.
-/

namespace Newton

variable {R : Type*} [CommRing R] {m x d : R}

def step (m x : R) : R := x * (2 - m * x)

theorem one_sub_step (m x : R) : 1 - m * step m x = (1 - m * x) ^ 2 := by
  unfold step
  ring

theorem dvd_step {k : Nat} (h : d ^ k ∣ 1 - m * x) : d ^ (2 * k) ∣ 1 - m * step m x := by
  rw [one_sub_step, Nat.mul_comm 2 k, pow_mul]
  exact pow_dvd_pow_of_dvd h 2

theorem dvd_iterate {k : Nat} (h : d ^ k ∣ 1 - m * x) (n : Nat) :
    d ^ (2 ^ n * k) ∣ 1 - m * (step m)^[n] x := by
  induction n with
  | zero => simpa using h
  | succ n ih =>
    rw [Function.iterate_succ_apply', pow_succ', Nat.mul_assoc]
    exact dvd_step ih

/-- The iteration reaches an inverse once the power of `d` is zero. -/
theorem mul_iterate_eq_one {k n : Nat} (h : d ^ k ∣ 1 - m * x) (hd : d ^ (2 ^ n * k) = 0) :
    m * (step m)^[n] x = 1 := by
  have hdvd := dvd_iterate h n
  rw [hd, zero_dvd_iff] at hdvd
  exact (sub_eq_zero.1 hdvd).symm

end Newton
