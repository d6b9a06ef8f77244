import MeasuredBoot.Lib.Bytes
import Mathlib.Data.Nat.Digits.Defs

/-!
# Numbers in bytes and in words

`ofBE` reads a byte list as a number, most significant byte first. A buffer of whole words is the same number
in base `256` and, word by word from its end, in base `2 ^ 32` (`ofBE_load_words`); two buffers of one length
that are the same number are equal (`ofBE_inj`).
-/

/-- The number a byte list spells, most significant first. -/
def ofBE (bs : List UInt8) : Nat := ofLE bs.reverse

theorem ofLE_append (xs ys : List UInt8) : ofLE (xs ++ ys) = ofLE xs + 256 ^ xs.length * ofLE ys := by
  induction xs with
  | nil => simp [ofLE]
  | cons x xs ih =>
    simp only [List.cons_append, ofLE, ih, List.length_cons, pow_succ']
    ring

theorem ofBE_append (xs ys : List UInt8) : ofBE (xs ++ ys) = ofBE ys + 256 ^ ys.length * ofBE xs := by
  unfold ofBE
  rw [List.reverse_append, ofLE_append, List.length_reverse]

theorem ofBE_inj {xs ys : List UInt8} (hlen : xs.length = ys.length) (h : ofBE xs = ofBE ys) : xs = ys := by
  have hle : ofLE xs.reverse = ofLE ys.reverse := h
  refine List.reverse_inj.1 ?_
  rw [← leBytes_ofLE xs.reverse, ← leBytes_ofLE ys.reverse, hle, List.length_reverse, List.length_reverse, hlen]

theorem ofBE_lt (bs : List UInt8) : ofBE bs < 256 ^ bs.length := by
  have h := ofLE_lt bs.reverse
  rwa [List.length_reverse] at h

/-- The words of a buffer, from its end on. -/
def wordsBE (m : Mem) (a n : Nat) : List Nat :=
  (List.range n).map fun j => ofBE (m.load (a + 4 * (n - 1 - j)) 4)

theorem wordsBE_succ (m : Mem) (a n : Nat) :
    wordsBE m a (n + 1) = ofBE (m.load (a + 4 * n) 4) :: wordsBE m a n := by
  unfold wordsBE
  rw [List.range_succ_eq_map, List.map_cons, List.map_map]
  refine congrArg₂ _ rfl (List.map_congr_left fun j _ => ?_)
  rw [Function.comp_apply, show n + 1 - 1 - (j + 1) = n - 1 - j by omega]

theorem ofBE_load_words (m : Mem) (a n : Nat) :
    ofBE (m.load a (4 * n)) = Nat.ofDigits (2 ^ 32) (wordsBE m a n) := by
  induction n with
  | zero => rfl
  | succ n ih =>
    rw [Nat.mul_succ, Mem.load_add, ofBE_append, Mem.length_load, ih, wordsBE_succ, Nat.ofDigits_cons]
    rfl

/-- Digits that are zero do not count. -/
theorem ofDigits_range_zero {b n m : Nat} {f : Nat → Nat} (hnm : n ≤ m) (hzero : ∀ k, n ≤ k → f k = 0) :
    Nat.ofDigits b ((List.range m).map f) = Nat.ofDigits b ((List.range n).map f) := by
  induction m, hnm using Nat.le_induction with
  | base => rfl
  | succ m hm ih =>
    rw [List.range_succ, List.map_append, Nat.ofDigits_append, ih, List.map_singleton, Nat.ofDigits_singleton,
      hzero m hm, Nat.mul_zero, Nat.add_zero]

/-- The digits of a number, computed. -/
theorem ofDigits_range_div (b x n : Nat) :
    Nat.ofDigits b ((List.range n).map fun j => x / b ^ j % b) = x % b ^ n := by
  induction n with
  | zero => simp [Nat.mod_one]
  | succ n ih =>
    rw [List.range_succ, List.map_append, Nat.ofDigits_append, ih, List.map_singleton, Nat.ofDigits_singleton,
      List.length_map, List.length_range, Nat.mod_pow_succ]
