import Mathlib.Data.UInt

/-!
# Fields in the lanes of a word

A register packs fields of at most eight bits into lanes that start at bits 0, 8, 16 and 24: `lane` puts
a masked value into one, `ofLane` reads one. The lane of a value gives it back, masked (`ofLane_lane`), and is zero
in every other lane (`ofLane_lane_other`), so that a word joined from lanes gives each of them back.
-/

namespace Lanes

/-- A value in the lane that starts at bit `shift`. -/
def lane (mask value shift : UInt32) : UInt32 := (value &&& mask) <<< shift

/-- What stands there. -/
def ofLane (mask word shift : UInt32) : UInt32 := (word >>> shift) &&& mask

variable {mask shift shift' : UInt32}

theorem testBit_of_lt {m : Nat} (hm : m < 2 ^ 8) {i : Nat} (hi : 8 ≤ i) : m.testBit i = false :=
  Nat.testBit_lt_two_pow (lt_of_lt_of_le hm (Nat.pow_le_pow_right (by decide) hi))

theorem testBit_lane (mask value : UInt32) (hs : shift.toNat < 32) (i : Nat) :
    (lane mask value shift).toNat.testBit i = (decide (i < 32) &&
      (decide (shift.toNat ≤ i) && (value &&& mask).toNat.testBit (i - shift.toNat))) := by
  rw [lane, UInt32.toNat_shiftLeft, Nat.mod_eq_of_lt hs, Nat.testBit_mod_two_pow,
    Nat.testBit_shiftLeft]

theorem testBit_ofLane (mask word : UInt32) (hs : shift.toNat < 32) (i : Nat) :
    (ofLane mask word shift).toNat.testBit i =
      (word.toNat.testBit (shift.toNat + i) && mask.toNat.testBit i) := by
  rw [ofLane, UInt32.toNat_and, UInt32.toNat_shiftRight, Nat.mod_eq_of_lt hs, Nat.testBit_and,
    Nat.testBit_shiftRight]

theorem ofLane_or (mask v w shift : UInt32) :
    ofLane mask (v ||| w) shift = ofLane mask v shift ||| ofLane mask w shift := by
  rw [← UInt32.toBitVec_inj]
  ext i
  simp [ofLane, UInt32.shiftRight_or, Bool.and_or_distrib_right]

/-- **A lane gives its value back.** -/
theorem ofLane_lane (value : UInt32) (hm : mask.toNat < 2 ^ 8) (hs : shift.toNat ≤ 24) :
    ofLane mask (lane mask value shift) shift = value &&& mask := by
  rw [← UInt32.toNat_inj]
  refine Nat.eq_of_testBit_eq fun i => ?_
  rw [testBit_ofLane _ _ (by omega), testBit_lane _ _ (by omega), UInt32.toNat_and, Nat.testBit_and]
  by_cases hi : 8 ≤ i
  · simp [testBit_of_lt hm hi]
  · have hlt : shift.toNat + i < 32 := by omega
    simp [hlt]

/-- It leaves nothing in another lane. -/
theorem ofLane_lane_other (value : UInt32) (hm : mask.toNat < 2 ^ 8) (hs : shift.toNat ≤ 24)
    (hs' : shift'.toNat ≤ 24)
    (h : shift.toNat + 8 ≤ shift'.toNat ∨ shift'.toNat + 8 ≤ shift.toNat) :
    ofLane mask (lane mask value shift') shift = 0 := by
  rw [← UInt32.toNat_inj]
  refine Nat.eq_of_testBit_eq fun i => ?_
  rw [testBit_ofLane _ _ (by omega), testBit_lane _ _ (by omega), UInt32.toNat_and, Nat.testBit_and,
    UInt32.toNat_zero, Nat.zero_testBit]
  by_cases hi : 8 ≤ i
  · simp [testBit_of_lt hm hi]
  · -- the bit read lies below the other lane or behind its mask
    by_cases hle : shift'.toNat ≤ shift.toNat + i
    · rw [testBit_of_lt hm (by omega : 8 ≤ shift.toNat + i - shift'.toNat)]
      simp
    · simp [hle]

end Lanes
