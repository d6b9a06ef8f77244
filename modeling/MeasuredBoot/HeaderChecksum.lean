import MeasuredBoot.ImageHeader
import Mathlib.Algebra.BigOperators.Intervals
import Mathlib.Data.List.GetD

/-!
# `XFsbl_ValidateChecksum`, word by word

`MeasuredBoot.validateChecksum` takes the words of a header as one list. Here they are read one
at a time from a buffer, up to a 32-bit count: the two agree (`validateChecksum_words`), and what
is accepted is stated with the sum of the words as integers.
-/

namespace MeasuredBoot.Header

open Finset

/-! ## Source -/

/-- `for (Count = 0U; Count < (Length-1U); Count++) { Checksum += Buffer[Count]; }` -/
def sumWords (buffer : Nat → UInt32) (length count checksum : UInt32) : UInt32 :=
  if count < length - 1 then sumWords buffer length (count + 1) (checksum + buffer count.toNat)
  else checksum
termination_by (length - 1).toNat - count.toNat
decreasing_by
  rename_i h
  have hc := UInt32.lt_iff_toNat_lt.mp h
  have := (length - 1).toNat_lt
  rw [UInt32.toNat_add, UInt32.toNat_one, Nat.mod_eq_of_lt (by omega)]
  omega

def validateChecksum (buffer : Nat → UInt32) (length : UInt32) : UInt32 :=
  if length < 2 then xfsblFailure
  else
    let checksum := sumWords buffer length 0 0 ^^^ 0xFFFFFFFF
    if buffer (length - 1).toNat ≠ checksum then xfsblFailure else xfsblSuccess

/-! ## The sum -/

/-- The sum of the first `n` words, as an integer. -/
def wordSum (buffer : Nat → UInt32) (n : Nat) : Nat := ∑ i ∈ range n, (buffer i).toNat

theorem sumWords_toNat (buffer : Nat → UInt32) (length count checksum : UInt32) :
    (sumWords buffer length count checksum).toNat =
      (checksum.toNat + ∑ i ∈ Ico count.toNat (length - 1).toNat, (buffer i).toNat) % 2 ^ 32 := by
  induction count, checksum using sumWords.induct buffer length with
  | case1 count checksum h ih =>
    have hc := UInt32.lt_iff_toNat_lt.mp h
    have hlt := (length - 1).toNat_lt
    have hnext : (count + 1).toNat = count.toNat + 1 := by
      rw [UInt32.toNat_add, UInt32.toNat_one, Nat.mod_eq_of_lt (by omega)]
    rw [sumWords, if_pos h, ih, hnext, sum_eq_sum_Ico_succ_bot hc, UInt32.toNat_add,
      Nat.mod_add_mod, Nat.add_assoc]
  | case2 count checksum h =>
    have hc : (length - 1).toNat ≤ count.toNat :=
      UInt32.le_iff_toNat_le.mp (UInt32.not_lt.mp h)
    rw [sumWords, if_neg h, Ico_eq_empty_of_le hc, sum_empty, Nat.add_zero,
      Nat.mod_eq_of_lt checksum.toNat_lt]

theorem sumWords_zero (buffer : Nat → UInt32) (length : UInt32) :
    (sumWords buffer length 0 0).toNat = wordSum buffer (length - 1).toNat % 2 ^ 32 := by
  rw [sumWords_toNat, wordSum, UInt32.toNat_zero, Nat.zero_add, range_eq_Ico]

/-- The complement step. -/
theorem toNat_complement (x : UInt32) : (x ^^^ 0xFFFFFFFF).toNat = 2 ^ 32 - 1 - x.toNat := by
  have h : x ^^^ 0xFFFFFFFF = ~~~x := UInt32.xor_neg_one
  rw [h]
  exact UInt32.toNat_not x

theorem length_pred {length : UInt32} (h : 2 ≤ length.toNat) :
    (length - 1).toNat = length.toNat - 1 := by
  rw [UInt32.toNat_sub_of_le _ _ (UInt32.le_iff_toNat_le.mpr (by simp; omega)), UInt32.toNat_one]

/-! ## What is accepted -/

/-- The last of the words is the complement of the sum of the others. -/
def Complemented (buffer : Nat → UInt32) (n : Nat) : Prop :=
  2 ≤ n ∧ (buffer (n - 1)).toNat = 2 ^ 32 - 1 - wordSum buffer (n - 1) % 2 ^ 32

theorem validateChecksum_iff (buffer : Nat → UInt32) (length : UInt32) :
    validateChecksum buffer length = xfsblSuccess ↔ Complemented buffer length.toNat := by
  have hlen : length < 2 ↔ length.toNat < 2 := UInt32.lt_iff_toNat_lt
  have hne : xfsblFailure ≠ xfsblSuccess := by decide
  unfold validateChecksum Complemented
  by_cases h2 : length < 2
  · rw [if_pos h2]
    exact ⟨fun h => absurd h hne, fun h => absurd (hlen.mp h2) (by omega)⟩
  · rw [if_neg h2]
    have hn : 2 ≤ length.toNat := by rw [hlen] at h2; omega
    have hword : buffer (length - 1).toNat = sumWords buffer length 0 0 ^^^ 0xFFFFFFFF ↔
        (buffer (length.toNat - 1)).toNat =
          2 ^ 32 - 1 - wordSum buffer (length.toNat - 1) % 2 ^ 32 := by
      rw [← UInt32.toNat_inj, toNat_complement, sumWords_zero, length_pred hn]
    simp only [ne_eq, hword, ite_not]
    split
    · exact ⟨fun _ => ⟨hn, ‹_›⟩, fun _ => rfl⟩
    · exact ⟨fun h => absurd h hne, fun h => absurd h.2 ‹_›⟩

theorem validateChecksum_cases (buffer : Nat → UInt32) (length : UInt32) :
    validateChecksum buffer length = xfsblSuccess ∨ validateChecksum buffer length = xfsblFailure := by
  unfold validateChecksum
  dsimp only
  split_ifs <;> simp

theorem rejected_iff {buffer : Nat → UInt32} {length : UInt32} :
    validateChecksum buffer length = xfsblFailure ↔ ¬ Complemented buffer length.toNat := by
  rw [← validateChecksum_iff]
  have hne : xfsblFailure ≠ xfsblSuccess := by decide
  rcases validateChecksum_cases buffer length with h | h
  · rw [h]
    exact ⟨fun e => absurd e.symm hne, fun e => absurd rfl e⟩
  · rw [h]
    exact ⟨fun _ => hne, fun _ => rfl⟩

/-! ## One word changed -/

theorem wordSum_update_of_le {buffer : Nat → UInt32} {n i : Nat} (v : UInt32) (h : n ≤ i) :
    wordSum (Function.update buffer i v) n = wordSum buffer n := by
  refine sum_congr rfl fun j hj => ?_
  have hj' := mem_range.mp hj
  rw [Function.update_of_ne (by omega)]

theorem wordSum_update {buffer : Nat → UInt32} {n i : Nat} (v : UInt32) (h : i < n) :
    wordSum (Function.update buffer i v) n + (buffer i).toNat = wordSum buffer n + v.toNat := by
  have hmem := mem_range.mpr h
  unfold wordSum
  rw [← add_sum_erase _ _ hmem, ← add_sum_erase _ (fun j => (buffer j).toNat) hmem,
    Function.update_self]
  have hrest : ∑ j ∈ (range n).erase i, (Function.update buffer i v j).toNat =
      ∑ j ∈ (range n).erase i, (buffer j).toNat :=
    sum_congr rfl fun j hj => by rw [Function.update_of_ne (ne_of_mem_erase hj)]
  omega

/-- Two accepted buffers do not differ in exactly one word. -/
theorem Complemented.update {buffer : Nat → UInt32} {n i : Nat} {v : UInt32}
    (h : Complemented buffer n) (hi : i < n) (hv : v ≠ buffer i) :
    ¬ Complemented (Function.update buffer i v) n := by
  rintro ⟨-, h'⟩
  obtain ⟨hn, h⟩ := h
  have hne : v.toNat ≠ (buffer i).toNat := fun e => hv (UInt32.toNat_inj.mp e)
  have hv' := v.toNat_lt
  have hb' := (buffer i).toNat_lt
  by_cases hlast : i = n - 1
  · -- The checksum word itself: the sum is unchanged.
    subst hlast
    rw [Function.update_self, wordSum_update_of_le v (Nat.le_refl _)] at h'
    exact hne (h'.trans h.symm)
  · rw [Function.update_of_ne (Ne.symm hlast)] at h'
    have hsum : wordSum (Function.update buffer i v) (n - 1) + (buffer i).toNat =
        wordSum buffer (n - 1) + v.toNat := wordSum_update v (by omega)
    omega

theorem checksum_detects (buffer : Nat → UInt32) (length : UInt32) :
    (validateChecksum buffer length = xfsblSuccess ↔
      2 ≤ length.toNat ∧
        (buffer (length.toNat - 1)).toNat =
          2 ^ 32 - 1 - (∑ i ∈ range (length.toNat - 1), (buffer i).toNat) % 2 ^ 32) ∧
    (validateChecksum buffer length = xfsblSuccess →
      ∀ i v, i < length.toNat → v ≠ buffer i →
        validateChecksum (Function.update buffer i v) length = xfsblFailure) := by
  refine ⟨validateChecksum_iff buffer length, fun h i v hi hv => ?_⟩
  exact rejected_iff.mpr (((validateChecksum_iff buffer length).mp h).update hi hv)

/-! ## The words of a header -/

theorem foldl_toNat (words : List UInt32) (checksum : UInt32) :
    (words.foldl (· + ·) checksum).toNat =
      (checksum.toNat + (words.map UInt32.toNat).sum) % 2 ^ 32 := by
  induction words generalizing checksum with
  | nil => rw [List.foldl_nil, List.map_nil, List.sum_nil, Nat.add_zero,
      Nat.mod_eq_of_lt checksum.toNat_lt]
  | cons word words ih =>
    rw [List.foldl_cons, ih, UInt32.toNat_add, Nat.mod_add_mod, List.map_cons, List.sum_cons,
      Nat.add_assoc]

theorem sum_take (words : List UInt32) {n : Nat} (h : n ≤ words.length) :
    ((words.take n).map UInt32.toNat).sum = wordSum (fun i => words.getD i 0) n := by
  induction n with
  | zero => rfl
  | succ n ih =>
    have hn : n < words.length := h
    have hget : words.getD n 0 = words[n] := List.getD_eq_getElem _ _ hn
    rw [List.take_succ_eq_append_getElem hn, List.map_append, List.sum_append, ih (by omega),
      List.map_singleton, List.sum_singleton, wordSum, wordSum, sum_range_succ, hget]

/-- The check of a header as a list of its words is the check of the buffer that holds them. -/
theorem validateChecksum_words (words : List UInt32) (h : words.length < 2 ^ 32) :
    MeasuredBoot.validateChecksum words =
      validateChecksum (fun i => words.getD i 0) (.ofNat words.length) := by
  have hlen : (UInt32.ofNat words.length).toNat = words.length := UInt32.toNat_ofNat_of_lt' h
  have hlt : UInt32.ofNat words.length < 2 ↔ words.length < 2 := by
    rw [UInt32.lt_iff_toNat_lt, hlen]; rfl
  unfold MeasuredBoot.validateChecksum validateChecksum
  by_cases h2 : words.length < 2
  · rw [if_pos h2, if_pos (hlt.mpr h2)]
  · rw [if_neg h2, if_neg (mt hlt.mp h2)]
    have hpred : (UInt32.ofNat words.length - 1).toNat = words.length - 1 := by
      rw [length_pred (by omega), hlen]
    have hsum : (words.take (words.length - 1)).foldl (· + ·) 0 =
        sumWords (fun i => words.getD i 0) (.ofNat words.length) 0 0 := by
      rw [← UInt32.toNat_inj, foldl_toNat, sumWords_zero, hpred, sum_take _ (by omega),
        UInt32.toNat_zero, Nat.zero_add]
    have hget : words.getD (words.length - 1) 0 = words[words.length - 1] :=
      List.getD_eq_getElem _ _ (by omega)
    have hlast : words.getLast? = some (words.getD (words.length - 1) 0) := by
      rw [hget, List.getLast?_eq_getElem?, List.getElem?_eq_getElem (by omega)]
    simp only [hsum, hlast, hpred, ne_eq, Option.some.injEq]

theorem getD_set (words : List UInt32) {i : Nat} (hi : i < words.length) (v : UInt32) :
    (fun j => (words.set i v).getD j 0) = Function.update (fun j => words.getD j 0) i v := by
  funext j
  by_cases hj : j = i
  · subst hj
    rw [Function.update_self, List.getD_eq_getElem _ _ (by simpa using hi), List.getElem_set_self]
  · rw [Function.update_of_ne hj]
    simp only [List.getD_eq_getElem?_getD, List.getElem?_set_ne (Ne.symm hj)]

/-- A header with one word changed does not keep its checksum. -/
theorem words_set_rejected (words : List UInt32) (hl : words.length < 2 ^ 32)
    (h : MeasuredBoot.validateChecksum words = xfsblSuccess) {i : Nat} {v : UInt32}
    (hi : i < words.length) (hv : v ≠ words[i]) :
    MeasuredBoot.validateChecksum (words.set i v) = xfsblFailure := by
  have hlen : (UInt32.ofNat words.length).toNat = words.length := UInt32.toNat_ofNat_of_lt' hl
  rw [validateChecksum_words _ hl, validateChecksum_iff, hlen] at h
  rw [validateChecksum_words _ (by rwa [List.length_set]), List.length_set, getD_set words hi,
    rejected_iff, hlen]
  exact h.update hi (by rwa [List.getD_eq_getElem _ _ hi])

/-- No two partition headers that pass their check differ in exactly one word. -/
theorem partitionHeader_changed (ph ph' : PartitionHeader) {i : Nat} {v : UInt32}
    (h : MeasuredBoot.validateChecksum ph.words = xfsblSuccess)
    (hi : i < ph.words.length) (hv : v ≠ ph.words[i]) (h' : ph'.words = ph.words.set i v) :
    MeasuredBoot.validateChecksum ph'.words = xfsblFailure := by
  have hl : ph.words.length < 2 ^ 32 := by simp [PartitionHeader.words]
  rw [h']
  exact words_set_rejected _ hl h hi hv

end MeasuredBoot.Header
